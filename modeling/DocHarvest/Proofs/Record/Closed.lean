import DocHarvest.Proofs.List
import DocHarvest.Proofs.Record.Draft

/-! The record of a list of tags, read off the list as a whole: the last tag of a key decides the field
of that key, and the parent is that of the last tag that names one. -/

namespace DocHarvest

open Markup

namespace Tag

def last? (key : Key) (tags : List Tag) : Option String :=
  (tags.findRev? (·.key == key)).map content

lemma last?_concat (key : Key) (tags : List Tag) (t : Tag) :
    last? key (tags ++ [t]) = if t.key = key then some t.content else last? key tags := by
  rw [last?, last?, List.findRev?_eq_find?_reverse, List.findRev?_eq_find?_reverse,
    List.reverse_concat, List.find?_cons]
  by_cases h : t.key = key
  · rw [if_pos h, beq_iff_eq.2 h]
    rfl
  · rw [if_neg h, beq_eq_false_iff_ne.2 h]

lemma last?_eq_some {key : Key} {tags : List Tag} {text : String} (h : ∃ t ∈ tags, t.key = key)
    (ht : ∀ t ∈ tags, t.key = key → t.content = text) : last? key tags = some text := by
  obtain ⟨t, hm, hk⟩ := h
  obtain ⟨u, hu⟩ : ∃ u, tags.reverse.find? (·.key == key) = some u := by
    rw [← Option.isSome_iff_exists, List.find?_isSome]
    exact ⟨t, List.mem_reverse.2 hm, beq_iff_eq.2 hk⟩
  have hmem := List.mem_reverse.1 (List.mem_of_find?_eq_some hu)
  have hkey : u.key = key := by simpa using List.find?_some hu
  rw [last?, List.findRev?_eq_find?_reverse, hu, Option.map_some, ht u hmem hkey]

end Tag

namespace Draft

section Names

def parentPart (content : String) : String :=
  String.ofList (content.toList.takeWhile (!isJoint ·))

/-- What follows the first joint, up to the second. -/
def ownPart (content : String) : String :=
  String.ofList ((content.toList.dropWhile (!isJoint ·)).tail.takeWhile (!isJoint ·))

variable (c : Context) (content : String)

def Context.splits : Bool :=
  c.kind.any compoundKinds.contains && content.toList.any isJoint

def Context.shortName : String :=
  if c.splits content then ownPart content else content

lemma splitOnP_of_any {s : List Char} (h : s.any isJoint) :
    s.splitOnP isJoint =
      s.takeWhile (!isJoint ·) :: (s.dropWhile (!isJoint ·)).tail.splitOnP isJoint := by
  induction s with
  | nil => cases h
  | cons x s ih =>
    rw [List.splitOnP_cons_eq_if_modifyHead]
    by_cases hx : isJoint x
    · simp [hx]
    · have hs : s.any isJoint := by simpa [hx] using h
      simp [hx, ih hs]

lemma splitName?_eq :
    c.splitName? content =
      if c.splits content then some (parentPart content, ownPart content) else none := by
  rw [Context.splitName?, Context.splits]
  by_cases hk : c.kind.any compoundKinds.contains
  · rw [if_pos hk, hk, Bool.true_and]
    by_cases hj : content.toList.any isJoint
    · obtain ⟨name, rest, hr⟩ := List.exists_cons_of_ne_nil
        (List.splitOnP_ne_nil isJoint (content.toList.dropWhile (!isJoint ·)).tail)
      have hn := head?_splitOnP isJoint (content.toList.dropWhile (!isJoint ·)).tail
      rw [hr, List.head?_cons, Option.some.injEq] at hn
      rw [if_pos hj, splitOnP_of_any hj, hr]
      dsimp only
      rw [hn]
      rfl
    · have hs : ∀ x ∈ content.toList, isJoint x = false := by simpa using hj
      rw [if_neg hj, List.splitOnP_eq_singleton hs]
  · rw [if_neg hk, if_neg (by simp [hk])]

end Names

/-- The name of the parent that a tag gives by itself. -/
def Context.namedParent? (c : Context) (t : Tag) : Option String :=
  match t.key with
  | .owner _ => some t.content
  | .name => if c.splits t.content then some (parentPart t.content) else none
  | _ => none

/-- The parent of the last tag that gives one; where none does, a name falls back on the default
module. -/
def Context.parentName? (c : Context) (tags : List Tag) : Option String :=
  (tags.reverse.findSome? c.namedParent?).or
    (if tags.any (·.key == .name) then c.defaultModule else none)

section Parent

variable {c : Context} {t : Tag} (tags : List Tag)

lemma parentName?_concat_of_some {parent : String} (h : c.namedParent? t = some parent) :
    c.parentName? (tags ++ [t]) = some parent := by
  rw [Context.parentName?, List.reverse_concat, List.findSome?_cons, h]
  rfl

lemma parentName?_concat_of_ne (h : c.namedParent? t = none) (hn : t.key ≠ .name) :
    c.parentName? (tags ++ [t]) = c.parentName? tags := by
  have hany : (tags ++ [t]).any (·.key == .name) = tags.any (·.key == .name) := by simp [hn]
  rw [Context.parentName?, Context.parentName?, List.reverse_concat, List.findSome?_cons, h, hany]

lemma parentName?_concat_name (h : c.namedParent? t = none) (hn : t.key = .name) :
    c.parentName? (tags ++ [t]) = (c.parentName? tags).or c.defaultModule := by
  have hany : (tags ++ [t]).any (·.key == .name) := by simp [hn]
  rw [Context.parentName?, Context.parentName?, List.reverse_concat, List.findSome?_cons, h, if_pos hany,
    Option.or_assoc]
  by_cases ha : tags.any (·.key == .name)
  · rw [if_pos ha, Option.or_self]
  · rw [if_neg ha, Option.none_or]

end Parent

end Draft

namespace Record

/-- The record has what its tags say, its parent aside. -/
structure Reflects (c : Draft.Context) (tags : List Tag) (r : Record) : Prop where
  docType : r.docType = "ngdoc"
  kind : r.kind = c.kind
  name : r.name = (Tag.last? .name tags).map c.shortName
  module : r.module = Tag.last? .module tags
  description : r.description = (Tag.last? .description tags).map Segment.ofMarkup
  examples : r.examples = (Tag.last? .examples tags).map Segment.ofMarkup
  params : r.params.map some =
    (tags.filter (·.key == .param)).map fun t => Param.parse? t.content
  scope : r.scope = tags.any (·.key == .scope)
  owners : r.owners = ⟨Tag.last? (.owner .method) tags, Tag.last? (.owner .property) tags,
    Tag.last? (.owner .event) tags, Tag.last? (.owner .member) tags⟩
  file : r.file = ""
  extra : ∀ key, r.extra.get? key = Tag.last? (.other key) tags

lemma reflects_blank (c : Draft.Context) : (blank c.kind).Reflects c [] where
  docType := rfl
  kind := rfl
  name := rfl
  module := rfl
  description := rfl
  examples := rfl
  params := rfl
  scope := rfl
  owners := rfl
  file := rfl
  extra _ := rfl

end Record

namespace Draft

variable {c : Context} {tags : List Tag} {t : Tag} {d d' : Draft}

lemma parent_addTag? (h : d.parent = c.parentName? tags) (ha : d.addTag? c t = some d') :
    d'.parent = c.parentName? (tags ++ [t]) := by
  rw [addTag?] at ha
  cases hk : t.key with
  | owner sort =>
    have ht : c.namedParent? t = some t.content := by rw [Context.namedParent?, hk]
    rw [parentName?_concat_of_some tags ht]
    rw [hk] at ha
    cases ha
    rfl
  | name =>
    rw [hk] at ha
    cases ha
    rw [setName, splitName?_eq]
    cases hs : c.splits t.content with
    | true =>
      have ht : c.namedParent? t = some (parentPart t.content) := by
        simp [Context.namedParent?, hk, hs]
      rw [parentName?_concat_of_some tags ht]
      rfl
    | false =>
      have ht : c.namedParent? t = none := by simp [Context.namedParent?, hk, hs]
      rw [parentName?_concat_name tags ht hk, ← h]
      rfl
  | param =>
    have ht : c.namedParent? t = none := by rw [Context.namedParent?, hk]
    rw [parentName?_concat_of_ne tags ht (by simp [hk]), ← h]
    rw [hk] at ha
    obtain ⟨p, -, rfl⟩ := Option.map_eq_some_iff.1 ha
    rfl
  | _ =>
    have ht : c.namedParent? t = none := by rw [Context.namedParent?, hk]
    rw [parentName?_concat_of_ne tags ht (by simp [hk]), ← h]
    rw [hk] at ha
    cases ha
    rfl

lemma record_setName (c : Context) (content : String) (d : Draft) :
    (d.setName c content).record = { d.record with name := some (c.shortName content) } := by
  rw [setName, splitName?_eq, Context.shortName]
  cases c.splits content <;> rfl

lemma reflects_addTag? (h : d.record.Reflects c tags) (ha : d.addTag? c t = some d') :
    d'.record.Reflects c (tags ++ [t]) := by
  obtain ⟨hdoc, hkind, hname, hmodule, hdescription, hexamples, hparams, hscope, howners, hfile,
    hextra⟩ := h
  rw [addTag?] at ha
  cases hk : t.key with rw [hk] at ha
  | param =>
    obtain ⟨p, hp, rfl⟩ := Option.map_eq_some_iff.1 ha
    constructor <;> simp [Tag.last?_concat, *]
  | name =>
    cases ha
    rw [record_setName]
    constructor <;> simp [Tag.last?_concat, *]
  | owner sort =>
    cases ha
    cases sort <;> constructor <;> simp [Tag.last?_concat, Owners.set, *]
  | other key =>
    cases ha
    constructor <;> simp [Tag.last?_concat, Dictionary.get?_insert, *]
  | _ =>
    cases ha
    constructor <;> simp [Tag.last?_concat, *]

/-- What the tags make of a draft. -/
structure Shows (c : Context) (tags : List Tag) (d : Draft) : Prop where
  record : d.record.Reflects c tags
  parent : d.parent = c.parentName? tags

lemma shows_blank (c : Context) : Shows c [] ⟨.blank c.kind, none⟩ :=
  ⟨Record.reflects_blank c, rfl⟩

lemma Shows.foldlM {before : List Tag} (h : d.Shows c before)
    (ht : tags.foldlM (Draft.addTag? c) d = some d') : d'.Shows c (before ++ tags) := by
  induction tags generalizing before d with
  | nil =>
    cases ht
    rwa [List.append_nil]
  | cons t tags ih =>
    rw [List.foldlM_cons] at ht
    obtain ⟨e, he, hd⟩ := Option.bind_eq_some_iff.1 ht
    have hs : e.Shows c (before ++ [t]) := ⟨reflects_addTag? h.record he, parent_addTag? h.parent he⟩
    rw [List.append_cons]
    exact ih hs hd

end Draft

namespace Record

/-- The closed form of the record of a list of tags. -/
structure Follows (tags : List Tag) (defaultModule : Option String) (r : Record) : Prop
    extends r.Reflects ⟨Tag.last? .kind tags, defaultModule⟩ tags where
  parent : r.parent =
    if Tag.last? .kind tags = some "module" then none
    else some ⟨Tag.last? .module tags,
      Draft.Context.parentName? ⟨Tag.last? .kind tags, defaultModule⟩ tags⟩

variable {tags : List Tag} {defaultModule : Option String} {r r' : Record}

lemma Follows.unique (h : r.Follows tags defaultModule) (h' : r'.Follows tags defaultModule) :
    r = r' := by
  have hparams : r.params = r'.params :=
    List.map_injective_iff.2 (Option.some_injective _) (h.params.trans h'.params.symm)
  have hextra : r.extra = r'.extra :=
    Dictionary.ext_get? fun key => (h.extra key).trans (h'.extra key).symm
  cases r
  cases r'
  simp only at hparams hextra
  rw [mk.injEq]
  exact ⟨h.docType.trans h'.docType.symm, h.kind.trans h'.kind.symm, h.name.trans h'.name.symm,
    h.module.trans h'.module.symm, h.description.trans h'.description.symm,
    h.examples.trans h'.examples.symm, hparams, h.scope.trans h'.scope.symm,
    h.owners.trans h'.owners.symm, h.parent.trans h'.parent.symm, h.file.trans h'.file.symm, hextra⟩

lemma follows_finish {d : Draft} (h : d.Shows ⟨Tag.last? .kind tags, defaultModule⟩ tags)
    (hp : d.record.parent = none) : d.finish.Follows tags defaultModule := by
  have hm : d.record.isModule ↔ Tag.last? .kind tags = some "module" := by
    rw [isModule, beq_iff_eq, h.record.kind]
  rw [Draft.finish]
  split
  · next hk => exact ⟨h.record, by rw [hp, if_pos (hm.1 hk)]⟩
  · next hk =>
    have hr := h.record
    refine ⟨⟨hr.docType, hr.kind, hr.name, hr.module, hr.description, hr.examples, hr.params, hr.scope,
      hr.owners, hr.file, hr.extra⟩, ?_⟩
    rw [if_neg (mt hm.2 hk), ← h.parent, ← hr.module]

lemma follows_ofTags? (h : ofTags? tags defaultModule = some r) : r.Follows tags defaultModule := by
  obtain ⟨d, hd, rfl⟩ := Option.map_eq_some_iff.1 h
  exact follows_finish ((Draft.shows_blank _).foldlM hd) ((Draft.underway_blank _).foldlM hd).parent

lemma Follows.not_isBadParam (h : r.Follows tags defaultModule) {t : Tag} (ht : t ∈ tags) :
    ¬t.isBadParam := by
  rintro ⟨hk, hp⟩
  have hm : none ∈ r.params.map some := by
    rw [h.params, List.mem_map]
    exact ⟨t, List.mem_filter.2 ⟨ht, beq_iff_eq.2 hk⟩, hp⟩
  simp at hm

theorem ofTags?_eq_some_iff_follows (tags : List Tag) (defaultModule : Option String) :
    (ofTags? tags defaultModule = none ↔ ∃ t ∈ tags, t.isBadParam) ∧
      ∀ r, ofTags? tags defaultModule = some r ↔ r.Follows tags defaultModule := by
  refine ⟨ofTags?_eq_none_iff, fun r => ⟨follows_ofTags?, fun h => ?_⟩⟩
  cases ho : ofTags? tags defaultModule with
  | none =>
    obtain ⟨t, ht, hb⟩ := ofTags?_eq_none_iff.1 ho
    exact (h.not_isBadParam ht hb).elim
  | some r' => rw [h.unique (follows_ofTags? ho)]

end Record

end DocHarvest
